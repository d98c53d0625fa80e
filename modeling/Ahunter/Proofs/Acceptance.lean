import Ahunter.Proofs.Claims
import Ahunter.Proofs.Steps

/-!
# An order is checked twice

A plan's new order passes `acceptance` when the plan is submitted and again
when the order reaches the exchange. Between the two the order has been
reserved, and the rule for a sale of an entire remainder compares its quantity
with the shares that are not reserved. So the second check sees the remainder
without the order's own shares: it admits a round lot, and a remainder only
when what was available before the submission is the quantity once more than
what the plan's own sales took.
-/

namespace Ahunter.Sim

open Ahunter.Lib

variable {spec : AccountSpec} {z : Zone} {at_ : Instant}

/-! ## Shares that are not reserved -/

variable {s : AccountState} {t : Instant} {r : Reservation} {rs : List Reservation}

theorem availableShares_eq (s : AccountState) (security : String) :
    availableShares z s security at_ = s.stockLots.sum fun k l =>
      if disposable z at_ security l then l.quantity - stockFrozen s.orders k else 0 := by
  simp only [availableShares, Dict.sum]
  induction s.stockLots.entries with
  | nil => rfl
  | cons e es ih =>
      by_cases h : disposable z at_ security e.2
      · rw [List.filter_cons_of_pos (p := fun e : String × StockLot =>
          disposable z at_ security e.2) h, List.map_cons, List.sum_cons, List.map_cons,
          List.sum_cons, if_pos h, ih]
      · rw [List.filter_cons_of_neg (p := fun e : String × StockLot =>
          disposable z at_ security e.2) h, List.map_cons, List.sum_cons, if_neg h,
          zero_add, ih]

theorem availableShares_setOrder {id : String} {o : Order} (hnew : s.orders.get? id = none)
    (security : String) :
    availableShares z (s.setOrder id o) security at_ = availableShares z s security at_
        - claimsOver s.stockLots (disposable z at_ security) o.stockReserved := by
  rw [availableShares_eq, availableShares_eq, claimsOver, eq_sub_iff_add_eq,
    AccountState.setOrder_stockLots, ← Dict.sum_add]
  refine Dict.sum_congr fun k l _ => ?_
  rw [AccountState.setOrder_orders, stockFrozen_set_new hnew, Order.frozenOn_eq]
  split
  · ring
  · rfl

theorem disposable_later {u : Instant} (htu : t ≤ u) {security : String} {l : StockLot}
    (h : disposable z t security l = true) : disposable z u security l = true := by
  simp only [disposable, stockEligible, Bool.and_eq_true, decide_eq_true_eq] at h ⊢
  exact ⟨h.1, h.2.1.trans htu, h.2.2.trans (z.date_mono htu)⟩

def soldOf (rs : List Reservation) (security : String) : ℤ :=
  ((rs.filter fun r => r.side = .sell && r.security = security).map
    Reservation.quantity).sum

theorem soldOf_cons (r : Reservation) (rs : List Reservation) (security : String) :
    soldOf (r :: rs) security = (if r.side = .sell ∧ r.security = security then r.quantity else 0)
        + soldOf rs security := by
  unfold soldOf
  by_cases h : r.side = .sell ∧ r.security = security
  · rw [List.filter_cons_of_pos (by simpa using h), if_pos h, List.map_cons,
      List.sum_cons]
  · rw [List.filter_cons_of_neg (by simpa using h), if_neg h, zero_add]

variable {acc acc' : AccountState × List Entry}

theorem reserveOne_available (ht : t ≤ at_)
    (h : reserveOne spec t acc r = .ok acc') (security : String) :
    availableShares spec.zone acc'.1 security at_ = availableShares spec.zone acc.1 security at_
        - (if r.side = .sell ∧ r.security = security then r.quantity else 0) := by
  obtain ⟨s, es⟩ := acc
  obtain ⟨s', es'⟩ := acc'
  obtain ⟨fees, -, hnew, ⟨hside, -, rfl, -⟩ | ⟨hside, hleft, rfl, -⟩⟩ :=
    reserveOne_ok h
  · rw [availableShares_setOrder hnew, claimsOver_none (by simp [storedOrder]),
      if_neg (by rw [hside]; simp)]
  · rw [availableShares_setOrder hnew]
    congr 1
    set claims := (takeFifo (disposable spec.zone t r.security)
      (stockFrozen s.orders) r.quantity (fifoLots s.stockLots)).1 with hclaims
    have hmem : ∀ e ∈ claims, ∃ l, s.stockLots.get? e.1 = some l ∧
        disposable spec.zone t r.security l = true := fun e he => by
      obtain ⟨l, hl, hu⟩ := takeFifo_mem he
      exact ⟨l, mem_fifoLots.mp hl, hu⟩
    by_cases hsec : r.security = security
    · rw [if_pos ⟨hside, hsec⟩, ← hsec, claimsOver_all fun e he => ?_, hclaims,
        takeFifo_sum, hleft, sub_zero]
      obtain ⟨l, hl, hu⟩ := hmem e he
      exact ⟨l, hl, disposable_later ht hu⟩
    · rw [if_neg (fun h => hsec h.2)]
      refine claimsOver_none fun e he l hl => ?_
      obtain ⟨l', hl', hu⟩ := hmem e he
      cases hl.symm.trans hl'
      simp only [disposable, Bool.and_eq_true, decide_eq_true_eq] at hu
      simp [disposable, hu.1, hsec]

theorem reserveWalk_available (ht : t ≤ at_)
    (h : walk (reserveOne spec t) acc rs = .ok acc') (security : String) :
    availableShares spec.zone acc'.1 security at_
      = availableShares spec.zone acc.1 security at_ - soldOf rs security := by
  induction rs generalizing acc with
  | nil =>
      cases h
      simp [soldOf]
  | cons r rs ih =>
      obtain ⟨mid, hone, hrest⟩ := walk_cons_ok.mp h
      rw [ih hrest, reserveOne_available ht hone, soldOf_cons]
      ring

/-! ## What a submission leaves -/

structure SameShares (s t : AccountState) : Prop where
  lots : t.stockLots = s.stockLots
  frozen : ∀ k, stockFrozen t.orders k = stockFrozen s.orders k

theorem SameShares.refl (s : AccountState) : SameShares s s := ⟨rfl, fun _ => rfl⟩

theorem SameShares.trans {t u : AccountState} (h : SameShares s t) (h' : SameShares t u) :
    SameShares s u :=
  ⟨h'.lots.trans h.lots, fun k => (h'.frozen k).trans (h.frozen k)⟩

theorem SameShares.available {t : AccountState} (h : SameShares s t) (security : String) :
    availableShares z t security at_ = availableShares z s security at_ := by
  rw [availableShares_eq, availableShares_eq, h.lots]
  refine Dict.sum_congr fun k l _ => ?_
  rw [h.frozen]

theorem SameShares.setOrder {id : String} {o o' : Order} (ho : s.orders.get? id = some o)
    (hsame : o'.stockReserved = o.stockReserved) :
    SameShares s (s.setOrder id o') where
  lots := rfl
  frozen := fun k => by
    rw [AccountState.setOrder_orders, stockFrozen_set ho, Order.frozenOn_eq,
      Order.frozenOn_eq, hsame, sub_self, add_zero]

theorem prepareState_stockLots {operation : Operation} {o o' : Outcome}
    (h : prepareState spec operation o = .ok o') : o'.state.stockLots = o.state.stockLots := by
  obtain ⟨_, _, -, -, hstate⟩ := (prepareState_ok h).state
  rw [hstate]

theorem SameShares.sealed {operation : Operation} {o o' : Outcome}
    (h : prepareState spec operation o = .ok o') : SameShares o.state o'.state :=
  ⟨prepareState_stockLots h, fun k => by rw [prepareState_orders h]⟩

def Unopposed (r : Reservation) (orders : Dict String Order) : Prop :=
  ∀ id o, orders.get? id = some o → o.security = r.security → o.side ≠ r.side →
    o.status.opposing = false

theorem Unopposed.set {orders : Dict String Order} (h : Unopposed r orders) {id : String}
    {o : Order} (ho : o.security = r.security → o.side ≠ r.side → o.status.opposing = false) :
    Unopposed r (orders.set id o) := by
  intro j p hp
  rw [Dict.get?_set] at hp
  split at hp
  · cases hp
    exact ho
  · exact h j p hp

/-- Orders of one batch never oppose each other. -/
def SameSides (r : Reservation) (rs : List Reservation) : Prop :=
  ∀ q ∈ rs, q.security = r.security → q.side = r.side

def Holds (rs : List Reservation) (orders : Dict String Order) : Prop :=
  ∀ q ∈ rs, ∃ o, orders.get? q.orderId = some o ∧ o.toReservation = q

theorem Reserved.holds {a b : Dict String Order} (h : Reserved spec at_ a rs b) :
    Holds rs b := fun q hq => by
  obtain ⟨cash, stock, hget⟩ := h.stored q hq
  exact ⟨_, hget, rfl⟩

theorem Reserved.unopposed {a b : Dict String Order} (h : Reserved spec at_ a rs b)
    (ha : Unopposed r a) (hsides : SameSides r rs) : Unopposed r b := by
  intro id o ho hsec hside
  by_cases hid : ∃ q ∈ rs, q.orderId = id
  · obtain ⟨q, hq, rfl⟩ := hid
    obtain ⟨cash, stock, hget⟩ := h.stored q hq
    cases hget.symm.trans ho
    exact absurd (hsides q hq hsec) hside
  · push Not at hid
    exact ha id o (h.others id hid ▸ ho) hsec hside

theorem markAll_shares {all : List Reservation} {st st' : Staged} (hsub : ∀ q ∈ rs, q ∈ all)
    (hsides : SameSides r all) (hholds : Holds all st.value.orders)
    (hopp : Unopposed r st.value.orders)
    (h : walk (fun (st : Staged) (order : Reservation) =>
      st.mark order.orderId fun o => { o with status := .pendingAcceptance }) st rs
        = .ok st') :
    SameShares st.value st'.value ∧ Unopposed r st'.value.orders := by
  have hkeep := walk_induction (P := fun st' : Staged =>
    SameShares st.value st'.value ∧ Unopposed r st'.value.orders ∧
      Holds all st'.value.orders) h ⟨SameShares.refl _, hopp, hholds⟩
    fun a q b hq ⟨hsame, hu, hh⟩ hone => ?_
  · exact ⟨hkeep.1, hkeep.2.1⟩
  · obtain ⟨order, horder, rfl⟩ := Staged.mark_ok hone
    obtain ⟨o, ho, hres⟩ := hh q (hsub q hq)
    cases ho.symm.trans horder
    refine ⟨hsame.trans (SameShares.setOrder horder rfl), hu.set fun hsec hside => ?_,
      fun p hp => ?_⟩
    · have hs := hsides q (hsub q hq)
      rw [← hres] at hs
      exact absurd (hs hsec) hside
    · rw [AccountState.setOrder_orders, Dict.get?_set]
      split
      · next hid =>
          obtain ⟨o', ho', hres'⟩ := hh p hp
          rw [hid] at ho'
          cases ho'.symm.trans horder
          exact ⟨_, rfl, hres'⟩
      · exact hh p hp

theorem reserveNew_shares {st' : Staged} {aid : String} (hr : r ∈ rs)
    (hopp : Unopposed r s.orders) (h : reserveNew spec ⟨s, []⟩ aid rs t = .ok st') :
    Unopposed r st'.value.orders ∧ st'.value.lastEventAt = some t ∧
      ∀ at_, t ≤ at_ → ∀ security, availableShares spec.zone st'.value security at_
        = availableShares spec.zone s security at_ - soldOf rs security := by
  simp only [reserveNew] at h
  rw [if_neg (List.ne_nil_of_mem hr)] at h
  simp only [bind_ok] at h
  obtain ⟨st1, hrun, hmarks⟩ := h
  obtain ⟨hcheck, ⟨-, e, he, -⟩ | ⟨o, o', hperform, hseal, rfl⟩⟩ := Staged.run_ok hrun
  · cases he
  simp only [AccountRequest.check, batchAdmissible, bind_ok, refuse_ok] at hcheck
  obtain ⟨-, -, hconflict⟩ := hcheck
  push Not at hconflict
  have hsides : SameSides r rs := fun q hq hsec => hconflict q hq r hr hsec
  obtain ⟨hres, -, hat, -⟩ := reserveBatch_ok hperform
  have horders := prepareState_orders hseal
  have hopp1 : Unopposed r o'.state.orders := by
    rw [horders]
    exact hres.unopposed hopp hsides
  have hholds : Holds rs o'.state.orders := by
    rw [horders]
    exact hres.holds
  obtain ⟨hsame, hopp'⟩ := markAll_shares (fun q hq => hq) hsides hholds hopp1 hmarks
  refine ⟨hopp', ?_, fun at_ ht security => ?_⟩
  · obtain ⟨_, _, -, -, hstate⟩ := (prepareState_ok hseal).state
    have hlast : o'.state.lastEventAt = some t := by rw [hstate, ← hat]
    have hkeep := walk_induction (P := fun a : Staged =>
      a.value.lastEventAt = some t) hmarks hlast fun a q b _ ha hone => by
        obtain ⟨order, -, rfl⟩ := Staged.mark_ok hone
        exact ha
    exact hkeep
  · rw [hsame.available, (SameShares.sealed hseal).available]
    simp only [perform, reserveBatch, bind_ok] at hperform
    obtain ⟨acc, hwalk, hout⟩ := hperform
    cases pure_ok.mp hout
    exact reserveWalk_available ht hwalk security

theorem enterWorkflow_shares {a b : Staged × Dict FlowKey Workflow} {f : Workflow}
    (h : enterWorkflow spec t a f = .ok b) (hopp : Unopposed r a.1.value.orders) :
    SameShares a.1.value b.1.value ∧ Unopposed r b.1.value.orders := by
  simp only [enterWorkflow] at h
  split at h
  · cases pure_ok.mp h
    exact ⟨SameShares.refl _, hopp⟩
  · simp only [bind_ok, pure_ok] at h
    obtain ⟨st, hrun, st', hmark, rfl⟩ := h
    have hreq : SameShares a.1.value st.value ∧ Unopposed r st.value.orders := by
      obtain ⟨-, ⟨rfl, -⟩ | ⟨o, o', hperform, hseal, rfl⟩⟩ := Staged.run_ok hrun
      · exact ⟨SameShares.refl _, hopp⟩
      · obtain ⟨order, horder, hstatus, rfl⟩ := cancelRequest_ok hperform
        have hset : SameShares a.1.value (a.1.value.setOrder f.orderId
            { order with status := .cancelPending }) :=
          SameShares.setOrder horder rfl
        refine ⟨hset.trans (SameShares.sealed hseal), ?_⟩
        rw [prepareState_orders hseal]
        refine hopp.set fun hsec hside => ?_
        -- The order was live before, so it was not on the other side.
        have hlive := hopp _ order horder hsec hside
        rcases hstatus with hst | hst <;> rw [hst] at hlive <;> cases hlive
    obtain ⟨order, horder, rfl⟩ := Staged.mark_ok hmark
    exact ⟨hreq.1.trans (SameShares.setOrder horder rfl),
      hreq.2.set fun hsec hside => hreq.2 _ order horder hsec hside⟩

/-! ## The two checks -/

/-- A quantity the exchange takes without an exception. -/
def RoundLot (r : Reservation) (proof : AcceptanceEvidence) : Prop :=
  proof.sellMinimum ≤ r.quantity ∧ r.quantity % proof.sellIncrement = 0

structure StillAdmits (spec : AccountSpec) (r : Reservation)
    (proof : AcceptanceEvidence) (at_ : Instant) : Prop where
  security : proof.security = r.security
  instant : proof.at_ = at_
  visible : spec.visible proof.availability ⟨at_, at_⟩ = true
  rule : r.marketRule.covers (spec.zone.date at_)
  market : ∃ span ∈ r.marketRule.acceptOrders,
    span.start ≤ spec.zone.time at_ ∧ spec.zone.time at_ < span.stop
  bounds : boundsProven proof.priceBounds r.marketRule = .ok ()
  price : ¬ offTick r.limitPrice r.marketRule.tick ∧
    proof.priceBounds.contains r.limitPrice = true
  cage : acceptableCage r proof = .ok ()
  quantity : RoundLot r proof ∨
    proof.sellRemainderPolicy = .entireAvailableRemainder

theorem acceptance_ok {proof : AcceptanceEvidence}
    (h : acceptance spec r proof s at_ false = .ok ()) :
    Unopposed r s.orders ∧ r.quantity ≤ r.marketRule.maximumOrderQuantity ∧
      r.quantity % r.marketRule.fillIncrement = 0 := by
  simp only [acceptance, acceptableQuantity, bind_ok, refuse_ok,
    Bool.false_eq_true, if_false] at h
  obtain ⟨_, hopp, _, -, _, -, _, -, _, -, _, -, _, -, _, hquantity, -⟩ := h
  push Not at hopp hquantity
  refine ⟨fun id o ho hsec hside => ?_, hquantity.1, hquantity.2⟩
  have hlive := hopp o (Dict.mem_values.mpr ⟨id, ho⟩) hsec hside
  simpa using hlive

theorem acceptance_sell_iff {proof : AcceptanceEvidence} (hside : r.side = .sell)
    (h : StillAdmits spec r proof at_) (hopp : Unopposed r s.orders)
    (hmax : r.quantity ≤ r.marketRule.maximumOrderQuantity)
    (hprecision : r.quantity % r.marketRule.fillIncrement = 0) :
    acceptance spec r proof s at_ true = .ok () ↔ RoundLot r proof ∨
        availableShares spec.zone s r.security at_ = r.quantity := by
  have hnone : ¬ ∃ old ∈ s.orders.values, old.security = r.security ∧
      old.side ≠ r.side ∧ old.status.opposing = true := by
    rintro ⟨old, hold, hsec, hne, hlive⟩
    obtain ⟨id, hid⟩ := Dict.mem_values.mp hold
    rw [hopp id old hid hsec hne] at hlive
    cases hlive
  rw [hside] at hnone
  simp only [acceptance, acceptableQuantity, bind_ok, refuse_ok, exists_const,
    if_true, hside]
  constructor
  · rintro ⟨-, -, -, -, -, _, -, -, _, -, -, hquantity⟩
    push Not at hquantity
    by_cases hround : RoundLot r proof
    · exact Or.inl hround
    · have hodd : r.quantity < proof.sellMinimum ∨
          r.quantity % proof.sellIncrement ≠ 0 := by
        by_contra hnot
        push Not at hnot
        exact hround hnot
      exact Or.inr (hquantity hodd).2.symm
  · intro hadmitted
    refine ⟨hnone, ?_, by simp [h.visible], not_not.mpr h.rule,
      fun hclosed => hclosed.2 h.market, (), h.bounds, ?_, (), h.cage, ?_, ?_⟩
    · simp [h.security, h.instant]
    · simp [h.price.1, h.price.2]
    · simp [hmax, hprecision]
    · rintro ⟨hodd, hremainder⟩
      have hnot : ¬ RoundLot r proof := fun hround => by
        rcases hodd with hlow | hmod
        · exact absurd hround.1 (not_le.mpr hlow)
        · exact hmod hround.2
      rcases hremainder with hpolicy | hless
      · exact hpolicy (h.quantity.resolve_left hnot)
      · exact hless (hadmitted.resolve_left hnot).symm

/-! ## Submissions -/

variable {proofs : List AcceptanceEvidence}

theorem prepareOne_accepted {phase : PhaseDefinition}
    {day : Date} {plan : StagePlan} {next index : ℕ} {acc acc' : List Workflow}
    (h : prepareOne spec s proofs phase day at_ plan next acc (.new r, index) = .ok acc') :
    ∃ proof, acceptance spec r proof s at_ false = .ok () := by
  simp only [prepareOne, planned, prepareInstruction, bind_ok, pure_ok] at h
  obtain ⟨p, rfl, timing, ⟨proof, -, _, -, _, haccepted, -⟩, -⟩ := h
  exact ⟨proof, haccepted⟩

theorem submit_shares {w w1 : World} {s1 : AccountState} {aid : String} {session : Session}
    {plan : StagePlan} (hs : w.account = some s)
    (hs1 : w1.account = some s1) (hsubmit : submit spec w aid session plan proofs = .ok w1)
    (hmade : w1 ≠ w) (hr : .new r ∈ plan.instructions) :
    Unopposed r s1.orders ∧ r.quantity ≤ r.marketRule.maximumOrderQuantity ∧
      r.quantity % r.marketRule.fillIncrement = 0 ∧
      ∀ at_, (∀ last ∈ s1.lastEventAt, last ≤ at_) → ∀ security,
        availableShares spec.zone s1 security at_ = availableShares spec.zone s security at_
            - soldOf (newOrders plan.instructions) security := by
  rcases submit_ok hsubmit with rfl | ⟨phase, t, st, x, plans, record, -, -, -,
    hstage, -, hpublish⟩
  · exact absurd rfl hmade
  obtain ⟨s', day, scan, prepared, st1, workflows, hs', -, -, -, hprepared, hreserve,
    henter, -⟩ := submitStage_ok hstage
  cases hs.symm.trans hs'
  obtain ⟨i, hi⟩ := List.mem_iff_getElem?.mp hr
  have hindexed : (Instruction.new r, i) ∈ plan.instructions.zipIdx :=
    List.mk_mem_zipIdx_iff_getElem?.mpr hi
  obtain ⟨c, c', hone⟩ := walk_mem hprepared hindexed
  obtain ⟨proof, haccepted⟩ := prepareOne_accepted hone
  obtain ⟨hopp, hmax, hprecision⟩ := acceptance_ok haccepted
  obtain ⟨hopp1, hlast1, havailable⟩ :=
    reserveNew_shares (mem_newOrders.mpr hr) hopp hreserve
  obtain ⟨hsame, hopp2⟩ := walk_induction (P := fun a : Staged × Dict FlowKey Workflow =>
    SameShares st1.value a.1.value ∧ Unopposed r a.1.value.orders) henter
    ⟨SameShares.refl _, hopp1⟩ fun a f b _ ha hb => by
      obtain ⟨h1, h2⟩ := enterWorkflow_shares hb ha.2
      exact ⟨ha.1.trans h1, h2⟩
  obtain ⟨o', hseal, rfl⟩ := World.publish_ok hpublish
  cases hs1
  refine ⟨?_, hmax, hprecision, fun at_ hat security => ?_⟩
  · rw [prepareState_orders hseal]
    exact hopp2
  · obtain ⟨_, _, -, -, hstate⟩ := (prepareState_ok hseal).state
    have ht : t ≤ at_ := hat t (by rw [hstate]; rfl)
    rw [(SameShares.sealed hseal).available, hsame.available, havailable at_ ht]

/-- The second check of a sale that a plan submitted and reserved, at an
instant whose evidence still admits it: it passes for a round lot, and for a
remainder exactly when the shares available but for the submission are the
quantity more than what the plan's sales of the security took. -/
theorem submitted_sale_reaccepted_iff {w w1 : World} {s s1 : AccountState}
    {aid : String} {session : Session} {plan : StagePlan}
    {proofs : List AcceptanceEvidence} {r : Reservation}
    {proof : AcceptanceEvidence} {at_ : Instant}
    (hs : w.account = some s) (hs1 : w1.account = some s1)
    (hsubmit : submit spec w aid session plan proofs = .ok w1) (hmade : w1 ≠ w)
    (hr : .new r ∈ plan.instructions) (hside : r.side = .sell)
    (hat : ∀ last ∈ s1.lastEventAt, last ≤ at_)
    (hstill : StillAdmits spec r proof at_) :
    acceptance spec r proof s1 at_ true = .ok () ↔
      RoundLot r proof ∨ availableShares spec.zone s r.security at_
        = r.quantity + soldOf (newOrders plan.instructions) r.security := by
  obtain ⟨hopp, hmax, hprecision, havailable⟩ := submit_shares hs hs1 hsubmit hmade hr
  rw [acceptance_sell_iff hside hstill hopp hmax hprecision, havailable at_ hat]
  constructor
  · rintro (hround | hleft)
    · exact Or.inl hround
    · exact Or.inr (by omega)
  · rintro (hround | hleft)
    · exact Or.inl hround
    · exact Or.inr (by omega)

/-! ## A remainder of the sample account -/

def earlyRule : MarketRule := { sampleRule with
  acceptOrders := [sampleSpan 550 565, sampleSpan 570 690, sampleSpan 780 900] }

def earlySale (quantity : ℤ) : Reservation :=
  { sampleOrder "sale" .sell quantity 10 with marketRule := earlyRule }

def earlyPlan (quantity : ℤ) : StagePlan := ⟨"plan", [.new (earlySale quantity)]⟩

def earlyProof (at_ : Instant) : AcceptanceEvidence :=
  sampleEvidence .entireAvailableRemainder at_

def earlySession : Session := ⟨"morning", "main", true, false, true⟩

theorem earlySale_stillAdmits (quantity : ℤ) :
    StillAdmits sampleSpec (earlySale quantity) (earlyProof (sampleAt 0 550)) (sampleAt 0 550) where
  security := rfl
  instant := rfl
  visible := by decide
  rule := show earlyRule.covers _ by decide
  market := show ∃ span ∈ earlyRule.acceptOrders, _ by decide
  bounds := by rfl
  price := ⟨show ¬ offTick 10 (1 / 100) by decide +kernel, rfl⟩
  cage := by rfl
  quantity := Or.inr rfl

def partSale : List Command := [
  .opening "open" true,
  .submit "submit" earlySession (earlyPlan 100)
    [earlyProof (sampleAt 0 500)],
  .advance "advance" (sampleAt 0 550) [⟨earlyProof (sampleAt 0 550), none⟩],
  .account "sell-1" (.fill "sale" 40 10 (sampleAt 0 600))]

def submitsEarly (quantity : ℤ)
    (test : AccountState → World → AccountState → Bool) (w : World) : Bool :=
  match w.account, submit sampleSpec w "submit" earlySession (earlyPlan quantity)
      [earlyProof (sampleAt 0 500)] with
  | some s, .ok w1 => w1.account.any fun s1 =>
      w1.events.length ≠ w.events.length ∧
        s1.lastEventAt = some (sampleAt 0 500) ∧ test s w1 s1
  | _, _ => false

theorem submitsEarly_ok {quantity : ℤ}
    {test : AccountState → World → AccountState → Bool} {w : World}
    (h : submitsEarly quantity test w = true) :
    ∃ s w1 s1, w.account = some s ∧ w1.account = some s1 ∧
      submit sampleSpec w "submit" earlySession (earlyPlan quantity)
        [earlyProof (sampleAt 0 500)] = .ok w1 ∧ w1 ≠ w ∧
      s1.lastEventAt = some (sampleAt 0 500) ∧ test s w1 s1 = true := by
  unfold submitsEarly at h
  split at h
  · next s w1 hs hsubmit =>
      obtain ⟨s1, hs1, htest⟩ := (Option.any_eq_true _ _).mp h
      obtain ⟨hevents, hlast, htest⟩ := of_decide_eq_true htest
      exact ⟨s, w1, s1, hs, hs1, hsubmit,
        fun heq => hevents (congrArg (fun w => w.events.length) heq), hlast, htest⟩
  · cases h

/-- A sale of one round lot of the sample position is admitted again. -/
theorem submitted_round_lot_reaccepted : ∃ (w w1 : World) (s s1 : AccountState),
    Reachable sampleSpec w ∧ w.account = some s ∧ w1.account = some s1 ∧
    (acceptance sampleSpec (earlySale 100)
        (earlyProof (sampleAt 0 550)) s1 (sampleAt 0 550) true = .ok () ↔
      RoundLot (earlySale 100) (earlyProof (sampleAt 0 550)) ∨
        availableShares sampleSpec.zone s sampleSecurity (sampleAt 0 550)
          = 100 + soldOf (newOrders (earlyPlan 100).instructions)
            sampleSecurity) := by
  obtain ⟨w, hw, htest⟩ := ReachableIf.of_check sampleSpec (fun _ _ _ => True)
    [.opening "open" true] (submitsEarly 100 fun _ _ _ => true)
    (by decide +kernel)
  obtain ⟨s, w1, s1, hs, hs1, hsubmit, hmade, hlast, -⟩ := submitsEarly_ok htest
  refine ⟨w, w1, s, s1, hw, hs, hs1, submitted_sale_reaccepted_iff hs hs1 hsubmit
    hmade List.mem_cons_self rfl (fun last h => ?_) (earlySale_stillAdmits _)⟩
  rw [hlast] at h
  cases h
  decide

/-- The whole position of 150 shares is sold as an odd remainder. The plan is
admitted and reserved, nothing else happens, the evidence at the exchange still
takes entire remainders, and the order is refused and ends rejected. -/
theorem submitted_remainder_refused :
    ∃ (w w1 w2 : World) (s s1 s2 : AccountState),
    Reachable sampleSpec w ∧ w.account = some s ∧ w1.account = some s1 ∧
    submit sampleSpec w "submit" earlySession (earlyPlan 150)
      [earlyProof (sampleAt 0 500)] = .ok w1 ∧ w1 ≠ w ∧
    s1.lastEventAt = some (sampleAt 0 500) ∧
    StillAdmits sampleSpec (earlySale 150)
      (earlyProof (sampleAt 0 550)) (sampleAt 0 550) ∧
    availableShares sampleSpec.zone s sampleSecurity (sampleAt 0 550) = 150 ∧
    acceptance sampleSpec (earlySale 150)
      (earlyProof (sampleAt 0 550)) s1 (sampleAt 0 550) true ≠ .ok () ∧
    advance sampleSpec w1 "advance" (sampleAt 0 550)
      [⟨earlyProof (sampleAt 0 550), none⟩] = .ok w2 ∧
    w2.account = some s2 ∧
    (s2.orders.get? "sale").map Order.status = some .rejected := by
  let refused := fun s1 : AccountState =>
    match acceptance sampleSpec (earlySale 150)
      (earlyProof (sampleAt 0 550)) s1 (sampleAt 0 550) true with
    | .ok _ => false
    | .error _ => true
  let ends := fun w1 : World =>
    match advance sampleSpec w1 "advance" (sampleAt 0 550)
      [⟨earlyProof (sampleAt 0 550), none⟩] with
    | .ok w2 => w2.account.any fun s2 : AccountState =>
        (s2.orders.get? "sale").map Order.status = some OrderStatus.rejected
    | .error _ => false
  obtain ⟨w, hw, htest⟩ := ReachableIf.of_check sampleSpec (fun _ _ _ => True)
    [.opening "open" true] (submitsEarly 150 fun s w1 s1 =>
      availableShares sampleSpec.zone s sampleSecurity (sampleAt 0 550) = 150 &&
        refused s1 && ends w1) (by decide +kernel)
  obtain ⟨s, w1, s1, hs, hs1, hsubmit, hmade, hlast, htest⟩ := submitsEarly_ok htest
  simp only [Bool.and_eq_true, decide_eq_true_eq] at htest
  obtain ⟨⟨havailable, hrefused⟩, hends⟩ := htest
  have hrefusal : acceptance sampleSpec (earlySale 150)
      (earlyProof (sampleAt 0 550)) s1 (sampleAt 0 550) true ≠ .ok () := by
    intro hok
    simp only [refused, hok, Bool.false_eq_true] at hrefused
  simp only [ends] at hends
  split at hends
  · next w2 hadvance =>
      obtain ⟨s2, hs2, hstatus⟩ := (Option.any_eq_true _ _).mp hends
      exact ⟨w, w1, w2, s, s1, s2, hw, hs, hs1, hsubmit, hmade, hlast,
        earlySale_stillAdmits _, havailable, hrefusal, hadvance, hs2,
        of_decide_eq_true hstatus⟩
  · cases hends

end Ahunter.Sim
