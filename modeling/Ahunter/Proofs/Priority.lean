import Ahunter.Proofs.Book
import Ahunter.Proofs.Precision

/-!
# Price-time priority

At each historical trade the simulated orders that stand before the participant
of their side take shares in the order of their claims. Every candidate but the
last to take any is filled whole: it takes all that remains of it, or it leaves
less of the trade than one executable piece, and then nobody after it takes
anything. What remains of an order is a whole number of pieces, so the rounding
never stops short of a whole fill.
-/

namespace Ahunter.Sim

open Ahunter.Lib

variable {spec : AccountSpec}

/-! ## Claims -/

def Outranks (side : Side) (limit : ℚ) (after : ℤ) (p : QueueOrder) : Prop :=
  match side with
  | .buy => p.price < limit ∨ limit = p.price ∧ after < p.priority
  | .sell => limit < p.price ∨ limit = p.price ∧ after < p.priority

theorem rank_lt_iff {side : Side} {limit : ℚ} {after : ℤ} {stable : ℕ} {p : QueueOrder}
    (hside : p.side = side) :
    rank side limit after 1 stable < p.rank ↔ Outranks side limit after p := by
  have hlast : ¬ toLex ((1 : ℕ), stable) < toLex ((0 : ℕ), (0 : ℕ)) := by
    rw [Prod.Lex.toLex_lt_toLex]
    omega
  rw [QueueOrder.rank, hside]
  cases side with
  | buy =>
      simp only [rank, Prod.Lex.toLex_lt_toLex, hlast, and_false, or_false, neg_lt_neg_iff,
        neg_inj, Outranks]
  | sell =>
      simp only [rank, Prod.Lex.toLex_lt_toLex, hlast, and_false, or_false, Outranks]

variable {s : AccountState}

theorem candidateRank_some {tick : QueueTick} {m : Matched}
    {q : QueueEntrant} {r : Rank} (h : candidateRank s tick m q = .ok (some r)) :
    ∃ o, s.orders.get? q.orderId = some o ∧
      r = rank o.side o.limitPrice q.position.afterSequence 1 q.accepted.priority ∧
      r < (m.on o.side).rank := by
  simp only [candidateRank, bind_ok, need_ok] at h
  obtain ⟨o, ho, h⟩ := h
  split at h
  · cases h
  split at h
  · cases h
  split at h
  · next hlt =>
      cases h
      exact ⟨o, ho, rfl, hlt⟩
  · cases h

/-! ## One candidate -/

structure Served (a b : TradeRun) (increment : ℤ) (fillId id : String) (o o' : Order)
    (quantity : ℤ) : Prop where
  before : a.stage.value.orders.get? id = some o
  after : b.stage.value.orders.get? id = some o'
  reservation : o'.toReservation = o.toReservation
  rounded : quantity = roundDown (min a.available o.remaining) increment
  nonneg : 0 ≤ quantity
  filled : o'.filledQuantity = o.filledQuantity + quantity
  available : b.available = a.available - quantity
  others : ∀ j, j ≠ id → ∀ p, a.stage.value.orders.get? j = some p →
    ∃ p', b.stage.value.orders.get? j = some p' ∧ Unmoved p p'
  effects : ∀ e ∈ b.stage.effects, e ∈ a.stage.effects ∨ e.actionId = fillId

theorem Served.remaining {a b : TradeRun} {increment quantity : ℤ} {fillId id : String}
    {o o' : Order} (h : Served a b increment fillId id o o' quantity) :
    o'.remaining = o.remaining - quantity := by
  have hquantity : o'.quantity = o.quantity := congrArg Reservation.quantity h.reservation
  rw [Order.remaining, Order.remaining, h.filled, hquantity]
  omega

theorem fillCandidate_served {aid id : String} {rule : MarketRule} {key : MinuteKey}
    {tick : QueueTick} {a b : TradeRun} (h : fillCandidate spec aid rule key tick a id = .ok b)
    (hnew : ∀ e ∈ a.stage.effects, e.actionId ≠ spec.queueFillId aid tick.event.sequence id) :
    ∃ o o' q, Served a b rule.fillIncrement (spec.queueFillId aid tick.event.sequence id)
      id o o' q := by
  simp only [fillCandidate, bind_ok, need_ok] at h
  obtain ⟨o, ho, h⟩ := h
  split at h
  · next hzero =>
      cases pure_ok.mp h
      exact ⟨o, o, 0, ho, ho, rfl, hzero.symm, le_rfl, (add_zero _).symm, (sub_zero _).symm,
        fun _ _ p hp => ⟨p, hp, .refl p⟩, fun _ he => Or.inl he⟩
  · simp only [bind_ok, pure_ok] at h
    obtain ⟨st, hst, x, -, rfl⟩ := h
    obtain ⟨hcheck, ⟨-, e, he, hid, -⟩ | ⟨out, out', hrun, hseal, rfl⟩⟩ := Staged.run_ok hst
    · exact absurd hid (hnew e he)
    · simp only [AccountRequest.check, refuse_ok, not_or, not_le] at hcheck
      have hmoved := fill_orders hrun
      have horders := prepareState_orders hseal
      obtain ⟨o', ho', hres, -, hself⟩ := (hmoved id).1 o ho
      rw [if_pos rfl] at hself
      refine ⟨o, o', _, ho, by rw [horders, ho'], hres, rfl, hcheck.1.le, hself.2.1, rfl,
        fun j hj p hp => ?_, fun e he => ?_⟩
      · obtain ⟨p', hp', -, -, hother⟩ := (hmoved j).1 p hp
        rw [if_neg hj] at hother
        exact ⟨p', by rw [horders, hp'], hother⟩
      · rcases List.mem_append.mp he with he | he
        · exact Or.inl he
        · rw [List.mem_singleton.mp he]
          exact Or.inr rfl

/-! ## The loop over one trade -/

def Takes (a b : Dict String Order) (id : String) : Prop :=
  ∃ o o', a.get? id = some o ∧ b.get? id = some o' ∧ o'.filledQuantity ≠ o.filledQuantity

def Spent (b : Dict String Order) (id : String) : Prop :=
  ∀ o, b.get? id = some o → o.remaining = 0

def WholePieces (a : Dict String Order) (increment : ℤ) (id : String) : Prop :=
  ∃ o, a.get? id = some o ∧ o.remaining % increment = 0

def UnusedFills (spec : AccountSpec) (aid : String) (tick : QueueTick) (a : TradeRun)
    (ids : List String) : Prop :=
  ∀ id ∈ ids, ∀ e ∈ a.stage.effects, e.actionId ≠ spec.queueFillId aid tick.event.sequence id

/-- Different orders are filled under different identities. -/
def DistinctIds (spec : AccountSpec) (aid : String) (tick : QueueTick) (ids : List String) :
    Prop :=
  ids.Pairwise fun i j => spec.queueFillId aid tick.event.sequence i ≠
    spec.queueFillId aid tick.event.sequence j

structure TradeServed (a b : TradeRun) (increment : ℤ) (fillIds ids : List String) : Prop where
  persists : Persists a.stage.value.orders b.stage.value.orders
  others : ∀ j, j ∉ ids → ∀ p, a.stage.value.orders.get? j = some p →
    ∃ p', b.stage.value.orders.get? j = some p' ∧ Unmoved p p'
  pieces : ∀ id, WholePieces a.stage.value.orders increment id →
    WholePieces b.stage.value.orders increment id
  effects : ∀ e ∈ b.stage.effects, e ∈ a.stage.effects ∨ e.actionId ∈ fillIds

section Loop

variable {aid : String} {rule : MarketRule} {key : MinuteKey} {tick : QueueTick} {a b : TradeRun}
  {ids : List String} {c : TradeRun} {o o' : Order}

theorem UnusedFills.tail {id : String} {q : ℤ}
    (h : UnusedFills spec aid tick a (id :: ids)) (hdistinct : DistinctIds spec aid tick (id :: ids))
    (hone : Served a c rule.fillIncrement (spec.queueFillId aid tick.event.sequence id) id o o' q) :
    UnusedFills spec aid tick c ids := by
  intro j hj e he
  rcases hone.effects e he with he | hid
  · exact h j (List.mem_cons_of_mem _ hj) e he
  · rw [hid]
    exact (List.pairwise_cons.mp hdistinct).1 j hj

theorem fillWalk_exhausted (h : walk (fillCandidate spec aid rule key tick) a ids = .ok b)
    (hnew : UnusedFills spec aid tick a ids) (hdistinct : DistinctIds spec aid tick ids)
    (hleft : a.available < rule.fillIncrement) :
    ∀ id, ¬ Takes a.stage.value.orders b.stage.value.orders id := by
  induction ids generalizing a with
  | nil =>
      cases h
      rintro id ⟨o, o', ho, ho', hne⟩
      obtain rfl := Option.some_inj.mp (ho.symm.trans ho')
      exact hne rfl
  | cons i is ih =>
      obtain ⟨c, hone, hrest⟩ := walk_cons_ok.mp h
      obtain ⟨o, o', q, hserved⟩ := fillCandidate_served hone (hnew i List.mem_cons_self)
      have hpos := rule.fillIncrement_pos
      have hq : q = 0 := by
        have hround := hserved.rounded
        have hmin : min a.available o.remaining < rule.fillIncrement :=
          lt_of_le_of_lt (min_le_left _ _) hleft
        have hdiv : min a.available o.remaining / rule.fillIncrement < 1 :=
          Int.ediv_lt_of_lt_mul hpos (by omega)
        have hle : q ≤ 0 := by
          rw [hround, roundDown]
          exact Int.mul_nonpos_of_nonpos_of_nonneg (by omega) hpos.le
        have hnonneg := hserved.nonneg
        omega
      have hrest' := ih hrest (hnew.tail hdistinct hserved) (List.pairwise_cons.mp hdistinct).2
        (by rw [hserved.available, hq]; omega)
      rintro j ⟨p, p', hp, hp', hne⟩
      by_cases hj : j = i
      · subst hj
        obtain rfl := Option.some_inj.mp (hserved.before.symm.trans hp)
        exact hrest' j ⟨o', p', hserved.after, hp', by rw [hserved.filled, hq]; omega⟩
      · obtain ⟨r, hr, hsame⟩ := hserved.others j hj p hp
        exact hrest' j ⟨r, p', hr, hp', by rw [hsame.filled]; exact hne⟩

variable {increment q : ℤ} {fillId id : String}

theorem Served.spent (h : Served a c increment fillId id o o' q) (hpos : 0 < increment)
    (hpieces : WholePieces a.stage.value.orders increment id)
    (hleft : increment ≤ c.available) : o'.remaining = 0 := by
  have hround := h.rounded
  have havailable := h.available
  obtain ⟨p, hp, hwhole⟩ := hpieces
  obtain rfl := Option.some_inj.mp (h.before.symm.trans hp)
  rw [h.remaining]
  rcases le_total o.remaining a.available with hle | hle
  · rw [min_eq_right hle, roundDown,
      Int.ediv_mul_cancel (Int.dvd_of_emod_eq_zero hwhole)] at hround
    omega
  · rw [min_eq_left hle, roundDown] at hround
    have hmod : a.available - a.available / increment * increment = a.available % increment := by
      rw [mul_comm, ← Int.emod_def]
    have hlt := Int.emod_lt_of_pos a.available hpos
    omega

theorem Served.pieces (h : Served a c increment fillId id o o' q) {j : String}
    (hpieces : WholePieces a.stage.value.orders increment j) :
    WholePieces c.stage.value.orders increment j := by
  obtain ⟨p, hp, hwhole⟩ := hpieces
  by_cases heq : j = id
  · subst heq
    obtain rfl := Option.some_inj.mp (h.before.symm.trans hp)
    refine ⟨o', h.after, ?_⟩
    rw [h.remaining, h.rounded]
    exact Int.emod_eq_zero_of_dvd (dvd_sub (Int.dvd_of_emod_eq_zero hwhole)
      (Int.dvd_of_emod_eq_zero (roundDown_emod _ _)))
  · obtain ⟨r, hr, hsame⟩ := h.others j heq p hp
    refine ⟨r, hr, ?_⟩
    have hquantity : r.quantity = p.quantity := congrArg Reservation.quantity hsame.reservation
    rw [Order.remaining, hquantity, hsame.filled]
    exact hwhole

theorem Served.persists (h : Served a c increment fillId id o o' q) :
    Persists a.stage.value.orders c.stage.value.orders := by
  intro j p hp
  by_cases heq : j = id
  · subst heq
    obtain rfl := Option.some_inj.mp (h.before.symm.trans hp)
    exact ⟨o', h.after, h.reservation⟩
  · obtain ⟨r, hr, hsame⟩ := h.others j heq p hp
    exact ⟨r, hr, hsame.reservation⟩

theorem fillWalk_served (h : walk (fillCandidate spec aid rule key tick) a ids = .ok b)
    (hnew : UnusedFills spec aid tick a ids) (hdistinct : DistinctIds spec aid tick ids) :
    TradeServed a b rule.fillIncrement (ids.map (spec.queueFillId aid tick.event.sequence))
      ids := by
  induction ids generalizing a with
  | nil =>
      cases h
      exact ⟨fun _ o ho => ⟨o, ho, rfl⟩, fun _ _ p hp => ⟨p, hp, .refl p⟩, fun _ hp => hp,
        fun _ he => Or.inl he⟩
  | cons i is ih =>
      obtain ⟨c, hone, hrest⟩ := walk_cons_ok.mp h
      obtain ⟨o, o', q, hserved⟩ := fillCandidate_served hone (hnew i List.mem_cons_self)
      have hlater := ih hrest (hnew.tail hdistinct hserved) (List.pairwise_cons.mp hdistinct).2
      refine ⟨fun j p hp => ?_, fun j hj p hp => ?_, fun j hpieces => ?_, fun e he => ?_⟩
      · obtain ⟨r, hr, hsame⟩ := hserved.persists j p hp
        obtain ⟨r', hr', hsame'⟩ := hlater.persists j r hr
        exact ⟨r', hr', hsame'.trans hsame⟩
      · rw [List.mem_cons, not_or] at hj
        obtain ⟨r, hr, hsame⟩ := hserved.others j hj.1 p hp
        obtain ⟨r', hr', hsame'⟩ := hlater.others j hj.2 r hr
        exact ⟨r', hr', hsame.trans hsame'⟩
      · exact hlater.pieces j (hserved.pieces hpieces)
      · rcases hlater.effects e he with he | hid
        · rcases hserved.effects e he with he | hid
          · exact Or.inl he
          · exact Or.inr (by rw [hid]; exact List.mem_cons_self)
        · exact Or.inr (List.mem_cons_of_mem _ hid)

theorem fillWalk_inOrder (h : walk (fillCandidate spec aid rule key tick) a ids = .ok b)
    (hnew : UnusedFills spec aid tick a ids) (hdistinct : DistinctIds spec aid tick ids)
    (hnodup : ids.Nodup)
    (hpieces : ∀ id ∈ ids, WholePieces a.stage.value.orders rule.fillIncrement id) :
    ids.Pairwise fun i j => Takes a.stage.value.orders b.stage.value.orders j →
      Spent b.stage.value.orders i := by
  induction ids generalizing a with
  | nil => exact .nil
  | cons i is ih =>
      obtain ⟨c, hone, hrest⟩ := walk_cons_ok.mp h
      obtain ⟨o, o', q, hserved⟩ := fillCandidate_served hone (hnew i List.mem_cons_self)
      have hnew' := hnew.tail hdistinct hserved
      have hdistinct' := (List.pairwise_cons.mp hdistinct).2
      obtain ⟨hi, hnodup'⟩ := List.nodup_cons.mp hnodup
      -- An order after the first takes in the rest of the loop what it takes in all of it.
      have htakes : ∀ j ∈ is, Takes a.stage.value.orders b.stage.value.orders j →
          Takes c.stage.value.orders b.stage.value.orders j := by
        rintro j hj ⟨p, p', hp, hp', hne⟩
        have hji : j ≠ i := fun heq => hi (heq ▸ hj)
        obtain ⟨r, hr, hsame⟩ := hserved.others j hji p hp
        exact ⟨r, p', hr, hp', by rw [hsame.filled]; exact hne⟩
      have hrest' := ih hrest hnew' hdistinct' hnodup' fun j hj =>
        hserved.pieces (hpieces j (List.mem_cons_of_mem _ hj))
      refine List.pairwise_cons.mpr ⟨fun j hj htook => ?_, ?_⟩
      · intro p hp
        have hleft : rule.fillIncrement ≤ c.available := by
          by_contra hless
          exact fillWalk_exhausted hrest hnew' hdistinct' (not_le.mp hless) j (htakes j hj htook)
        have hspent := hserved.spent rule.fillIncrement_pos (hpieces i List.mem_cons_self) hleft
        obtain ⟨p', hp', hsame⟩ :=
          (fillWalk_served hrest hnew' hdistinct').others i hi o' hserved.after
        obtain rfl := Option.some_inj.mp (hp.symm.trans hp')
        have hquantity : p.quantity = o'.quantity :=
          congrArg Reservation.quantity hsame.reservation
        rw [Order.remaining, hquantity, hsame.filled]
        exact hspent
      · exact hrest'.imp_of_mem fun {i' j'} _ hj' hspent htook => hspent (htakes j' hj' htook)

end Loop

/-! ## One event of a replay -/

variable {entrants : List QueueEntrant}

structure TradeLawful (entrants : List QueueEntrant) (tick : QueueTick) (m : Matched)
    (s s' : AccountState) : Prop where
  outranks : ∀ id, Takes s.orders s'.orders id → ∃ q ∈ entrants, q.orderId = id ∧
    ∀ o, s.orders.get? id = some o →
      Outranks o.side o.limitPrice q.position.afterSequence (m.on o.side)
  inOrder : ∀ p ∈ entrants, ∀ q ∈ entrants, ∀ r t,
    candidateRank s tick m p = .ok (some r) → candidateRank s tick m q = .ok (some t) →
    r < t → Takes s.orders s'.orders q.orderId → Spent s'.orders p.orderId

/-- What an event of a replay may do to them: nothing unless it is a trade. -/
structure TickLawful (entrants : List QueueEntrant) (tick : QueueTick) (a b : QueueRun) :
    Prop where
  quiet : ∀ r, historicalEvent a.book a.seen tick.event = .ok r → r.matched = none →
    b.stage = a.stage
  trade : ∀ r m, historicalEvent a.book a.seen tick.event = .ok r → r.matched = some m →
    TradeLawful entrants tick m a.stage.value b.stage.value

def DistinctFills (spec : AccountSpec) (aid : String) (ticks : List QueueTick)
    (ids : List String) : Prop :=
  ∀ t ∈ ticks, ∀ u ∈ ticks, ∀ i ∈ ids, ∀ j ∈ ids,
    spec.queueFillId aid t.event.sequence i = spec.queueFillId aid u.event.sequence j →
    t.event.sequence = u.event.sequence ∧ i = j

instance (spec : AccountSpec) (aid : String) (ticks : List QueueTick) (ids : List String) :
    Decidable (DistinctFills spec aid ticks ids) :=
  inferInstanceAs (Decidable (∀ t ∈ ticks, ∀ u ∈ ticks, ∀ i ∈ ids, ∀ j ∈ ids, _))

theorem pairwise_of_lt {α : Type} [LinearOrder α] {R : α → α → Prop} {l : List α}
    (hsorted : l.Pairwise (· ≤ ·)) (h : l.Pairwise R) {x y : α} (hx : x ∈ l) (hy : y ∈ l)
    (hlt : x < y) : R x y := by
  induction l with
  | nil => cases hx
  | cons z l ih =>
      obtain ⟨hfirst, hsorted'⟩ := List.pairwise_cons.mp hsorted
      obtain ⟨hz, h'⟩ := List.pairwise_cons.mp h
      rcases List.mem_cons.mp hx with rfl | hx'
      · rcases List.mem_cons.mp hy with rfl | hy'
        · exact absurd hlt (lt_irrefl _)
        · exact hz y hy'
      · rcases List.mem_cons.mp hy with rfl | hy'
        · exact absurd hlt (not_lt.mpr (hfirst x hx'))
        · exact ih hsorted' h' hx' hy'

theorem candidates_nodup {tick : QueueTick} {m : Matched}
    {reached : List (Rank ×ₗ String)} (h : candidates s tick m entrants = .ok reached)
    (hnodup : (entrants.map QueueEntrant.orderId).Nodup) : (reached.map Prod.snd).Nodup := by
  have hperm : reached.Perm (entrants.filterMap (claimOf s tick m)) := by
    rw [candidates_eq h]
    exact List.perm_insertionSort _ _
  refine (hperm.map Prod.snd).nodup_iff.mpr ?_
  refine List.pairwise_map.mpr (List.pairwise_filterMap.mpr ?_)
  refine (List.pairwise_map.mp hnodup).imp fun {p q} hne c hc c' hc' => ?_
  obtain ⟨r, -, rfl⟩ := claimOf_some.mp hc
  obtain ⟨t, -, rfl⟩ := claimOf_some.mp hc'
  exact hne

theorem historicalEvent_sides {book : Book} {seen : Seen} {e : QueueEvent} {r : Replayed}
    {m : Matched} (h : historicalEvent book seen e = .ok r) (hm : r.matched = some m)
    (side : Side) : (m.on side).side = side := by
  cases htype : e.eventType with
  | add =>
      obtain ⟨-, rfl⟩ := (historicalEvent_adds (QueueEvent.adds_iff.mpr htype)).mp h
      cases hm
  | cancel =>
      simp only [historicalEvent, htype, bind_ok, refuse_ok, pure_ok] at h
      obtain ⟨old, -, -, -, rfl⟩ := h
      cases hm
  | trade =>
      simp only [historicalEvent, htype, bind_ok, need_ok, refuse_ok, pure_ok] at h
      obtain ⟨old, hold, cid, -, contra, -, -, hcfit, -, -, -, -, rfl⟩ := h
      obtain ⟨-, hside, -⟩ := adequate_ok hold
      rw [not_or] at hcfit
      obtain rfl := Option.some_inj.mp hm
      exact participants_side (hside ▸ hcfit.1) side

section Tick

variable {aid : String} {e : QueueMarket} {entrants : List QueueEntrant} {a b : QueueRun}
  {tick : QueueTick}

def FreshFills (spec : AccountSpec) (aid : String) (entrants : List QueueEntrant)
    (tick : QueueTick) (a : QueueRun) : Prop :=
  ∀ q ∈ entrants, ∀ f ∈ a.stage.effects,
    f.actionId ≠ spec.queueFillId aid tick.event.sequence q.orderId

/-- What an event leaves for those after it. -/
structure TickServed (spec : AccountSpec) (aid : String) (increment : ℤ)
    (entrants : List QueueEntrant) (tick : QueueTick) (a b : QueueRun) : Prop where
  pieces : ∀ id, WholePieces a.stage.value.orders increment id →
    WholePieces b.stage.value.orders increment id
  effects : ∀ f ∈ b.stage.effects, f ∈ a.stage.effects ∨
    ∃ q ∈ entrants, f.actionId = spec.queueFillId aid tick.event.sequence q.orderId

theorem replayTick_lawful (h : replayTick spec aid e entrants a tick = .ok b)
    (hnodup : (entrants.map QueueEntrant.orderId).Nodup)
    (hdistinct : DistinctFills spec aid [tick] (entrants.map QueueEntrant.orderId))
    (hfresh : FreshFills spec aid entrants tick a)
    (hpieces : ∀ q ∈ entrants,
      WholePieces a.stage.value.orders e.marketRule.fillIncrement q.orderId) :
    TickLawful entrants tick a b ∧
      TickServed spec aid e.marketRule.fillIncrement entrants tick a b := by
  simp only [replayTick, bind_ok] at h
  obtain ⟨r, hr, h⟩ := h
  split at h
  · next hnone =>
      cases pure_ok.mp h
      refine ⟨⟨fun _ _ _ => rfl, fun r' m hr' hm => ?_⟩, fun _ hp => hp, fun _ hf => Or.inl hf⟩
      obtain rfl := Except.ok.inj (hr.symm.trans hr')
      rw [hnone] at hm
      cases hm
  · next m hmatched =>
      simp only [bind_ok, need_ok, pure_ok] at h
      obtain ⟨start, -, capacity, -, reached, hreached, t, ht, rfl⟩ := h
      have hids : ∀ id ∈ reached.map Prod.snd, ∃ q ∈ entrants, q.orderId = id := by
        intro id hid
        obtain ⟨c, hc, rfl⟩ := List.mem_map.mp hid
        obtain ⟨q, hq, rank, -, rfl⟩ := (mem_candidates hreached).mp hc
        exact ⟨q, hq, rfl⟩
      have hreachedNodup := candidates_nodup hreached hnodup
      have hdistinctIds : DistinctIds spec aid tick (reached.map Prod.snd) := by
        refine hreachedNodup.imp_of_mem fun {i j} hi hj hne heq => hne ?_
        obtain ⟨p, hp, rfl⟩ := hids i hi
        obtain ⟨q, hq, rfl⟩ := hids j hj
        exact (hdistinct tick List.mem_cons_self tick List.mem_cons_self _
          (List.mem_map_of_mem hp) _ (List.mem_map_of_mem hq) heq).2
      have hunused : UnusedFills spec aid tick ⟨a.stage, a.execution,
          min tick.event.quantity (capacity.total - capacity.used), a.fills⟩
          (reached.map Prod.snd) := by
        intro id hid f hf
        obtain ⟨q, hq, rfl⟩ := hids id hid
        exact hfresh q hq f hf
      have hserved := fillWalk_served ht hunused hdistinctIds
      have horder := fillWalk_inOrder ht hunused hdistinctIds hreachedNodup fun id hid => by
        obtain ⟨q, hq, rfl⟩ := hids id hid
        exact hpieces q hq
      refine ⟨⟨fun r' hr' hm => ?_, fun r' m' hr' hm => ?_⟩, hserved.pieces, fun f hf => ?_⟩
      · obtain rfl := Except.ok.inj (hr.symm.trans hr')
        rw [hmatched] at hm
        cases hm
      · obtain rfl := Except.ok.inj (hr.symm.trans hr')
        obtain rfl := Option.some_inj.mp (hmatched.symm.trans hm)
        constructor
        · rintro id ⟨o, o', ho, ho', hne⟩
          by_cases hid : id ∈ reached.map Prod.snd
          · obtain ⟨c, hc, rfl⟩ := List.mem_map.mp hid
            obtain ⟨q, hq, rank, hrank, rfl⟩ := (mem_candidates hreached).mp hc
            refine ⟨q, hq, rfl, fun p hp => ?_⟩
            obtain ⟨p', hp', rfl, hlt⟩ := candidateRank_some hrank
            obtain rfl := Option.some_inj.mp (hp.symm.trans hp')
            exact (rank_lt_iff (historicalEvent_sides hr hmatched p.side)).mp hlt
          · obtain ⟨p', hp', hsame⟩ := hserved.others id hid o ho
            obtain rfl := Option.some_inj.mp (ho'.symm.trans hp')
            exact absurd hsame.filled hne
        · intro p hp q hq rank rank' hrank hrank' hlt htakes
          have hx := (mem_candidates hreached).mpr ⟨p, hp, rank, hrank, rfl⟩
          have hy := (mem_candidates hreached).mpr ⟨q, hq, rank', hrank', rfl⟩
          have hsorted : reached.Pairwise (· ≤ ·) := by
            rw [candidates_eq hreached]
            exact List.pairwise_insertionSort _ _
          exact pairwise_of_lt hsorted (List.pairwise_map.mp horder) hx hy
            (Prod.Lex.toLex_lt_toLex.mpr (Or.inl hlt)) htakes
      · rcases hserved.effects f hf with hf | hid
        · exact Or.inl hf
        · obtain ⟨id, hid, heq⟩ := List.mem_map.mp hid
          obtain ⟨q, hq, rfl⟩ := hids id hid
          exact Or.inr ⟨q, hq, heq.symm⟩

def ReplayLawful (spec : AccountSpec) (aid : String) (e : QueueMarket)
    (entrants : List QueueEntrant) (start : QueueRun) (ticks : List QueueTick) : Prop :=
  ∀ ts t us, ticks = ts ++ t :: us → ∀ a b,
    walk (replayTick spec aid e entrants) start ts = .ok a →
    replayTick spec aid e entrants a t = .ok b → TickLawful entrants t a b

theorem replayWalk_lawful {ticks : List QueueTick}
    (hnodup : (entrants.map QueueEntrant.orderId).Nodup) (hsequenced : Sequenced ticks)
    (hdistinct : DistinctFills spec aid ticks (entrants.map QueueEntrant.orderId))
    (hfresh : ∀ t ∈ ticks, FreshFills spec aid entrants t a)
    (hpieces : ∀ q ∈ entrants,
      WholePieces a.stage.value.orders e.marketRule.fillIncrement q.orderId) :
    ReplayLawful spec aid e entrants a ticks := by
  induction ticks generalizing a with
  | nil =>
      intro ts t us heq
      exact absurd heq.symm (by simp)
  | cons u ticks ih =>
      obtain ⟨hfirst, hsequenced'⟩ := List.pairwise_cons.mp hsequenced
      have hone : DistinctFills spec aid [u] (entrants.map QueueEntrant.orderId) := by
        intro t ht t' ht' i hi j hj heq
        rw [List.mem_singleton.mp ht, List.mem_singleton.mp ht'] at heq ⊢
        exact hdistinct u List.mem_cons_self u List.mem_cons_self i hi j hj heq
      have hlawful : ∀ b, replayTick spec aid e entrants a u = .ok b → _ := fun b hb =>
        replayTick_lawful hb hnodup hone (hfresh u List.mem_cons_self) hpieces
      intro ts t us heq b c hwalk htick
      cases ts with
      | nil =>
          obtain ⟨rfl, rfl⟩ := List.cons.inj heq
          cases hwalk
          exact (hlawful c htick).1
      | cons t' ts =>
          obtain ⟨rfl, rfl⟩ := List.cons.inj heq
          obtain ⟨mid, hmid, hrest⟩ := walk_cons_ok.mp hwalk
          obtain ⟨-, hserved⟩ := hlawful mid hmid
          refine ih hsequenced' (fun t ht t' ht' => hdistinct t (List.mem_cons_of_mem _ ht) t'
            (List.mem_cons_of_mem _ ht')) (fun t ht q hq f hf => ?_)
            (fun q hq => hserved.pieces _ (hpieces q hq)) ts t us rfl b c hrest htick
          rcases hserved.effects f hf with hf | ⟨p, hp, hid⟩
          · exact hfresh t (List.mem_cons_of_mem _ ht) q hq f hf
          · intro heq
            have hsame := (hdistinct u List.mem_cons_self t (List.mem_cons_of_mem _ ht)
              p.orderId (List.mem_map_of_mem hp) q.orderId (List.mem_map_of_mem hq)
              (hid.symm.trans heq)).1
            exact absurd hsame (hfirst t ht).ne

end Tick

/-! ## A whole replay -/

variable {at_ : Instant}

theorem pinWalk_ids {e : QueueEvidence} {key : String} {x x' : ExecutionState}
    {acc : List QueueEntrant} {live : List (String × Order)}
    (h : walk (pinPosition spec e key at_) (x, acc) live = .ok (x', entrants)) :
    entrants.map QueueEntrant.orderId = acc.map QueueEntrant.orderId ++ live.map Prod.fst := by
  induction live generalizing x acc with
  | nil =>
      cases h
      simp
  | cons l ls ih =>
      obtain ⟨⟨y, mid⟩, hone, hrest⟩ := walk_cons_ok.mp h
      simp only [pinPosition, bind_ok, pure_ok, Prod.mk.injEq] at hone
      obtain ⟨_, -, _, -, _, -, _, -, _, -, _, -, rfl, rfl⟩ := hone
      rw [ih hrest]
      simp

theorem pinWalk_accepted {e : QueueEvidence} {key : String} {x x' : ExecutionState}
    (h : walk (pinPosition spec e key at_) (x, []) (activeOrders s e.security)
      = .ok (x', entrants)) :
    ∀ q ∈ entrants, (∃ a, x.orders.get? q.orderId = some a) ∧
      q.orderId ∈ e.positions.map QueuePosition.orderId := by
  refine (walk_induction (P := fun acc : ExecutionState × List QueueEntrant =>
    BookGrows x acc.1 (fun _ => False) ∧ ∀ q ∈ acc.2,
      (∃ a, x.orders.get? q.orderId = some a) ∧
        q.orderId ∈ e.positions.map QueuePosition.orderId) h
    ⟨.of_eq rfl, fun _ hm => nomatch hm⟩ fun acc entry acc' _ ⟨hgrows, hacc⟩ hone => ?_).2
  refine ⟨hgrows.trans (pinPosition_grows hone), ?_⟩
  simp only [pinPosition, bind_ok, need_ok, pure_ok] at hone
  obtain ⟨position, hposition, accepted, haccepted, _, -, _, -, _, -, _, -, rfl⟩ := hone
  intro q hq
  rcases List.mem_append.mp hq with hq | hq
  · exact hacc q hq
  · rw [List.mem_singleton.mp hq]
    refine ⟨?_, ?_⟩
    · rcases hgrows.only _ _ haccepted with hfalse | hold
      · exact hfalse.elim
      · exact hold
    · have hid := List.find?_some hposition
      rw [decide_eq_true_eq] at hid
      exact hid ▸ List.mem_map_of_mem (List.mem_of_find?_eq_some hposition)

theorem QueueReplayed.lawful {w w' : World} {aid : String} {e : QueueEvidence}
    {sequence : ℤ} {volumes : Volumes} {start : ReplayStart}
    {x1 x2 : ExecutionState} {run : QueueRun} {results : List QueueOutcome}
    (h : QueueReplayed spec aid e at_ sequence w w' s volumes start x1 entrants x2 run results)
    (hw : ReachableIf spec EngineFills w)
    (hdistinct : DistinctFills spec aid e.events (e.positions.map QueuePosition.orderId)) :
    ReplayLawful spec aid e.toQueueMarket entrants ⟨⟨s, []⟩, x2, start.book, start.seen, [], []⟩
      (pendingTicks e.toQueueMarket start.last sequence) := by
  obtain ⟨hsequenced, -⟩ := validateCapture_ok h.valid
  have haccepted := pinWalk_accepted h.pinned
  have hnodup : (entrants.map QueueEntrant.orderId).Nodup := by
    rw [pinWalk_ids h.pinned, List.map_nil, List.nil_append]
    exact s.orders.keys_nodup.sublist (List.Sublist.map _ List.filter_sublist)
  refine replayWalk_lawful hnodup (hsequenced.sublist List.filter_sublist) ?_
    (fun _ _ _ _ _ hf => nomatch hf) fun q hq => ?_
  · intro t ht u hu i hi j hj heq
    obtain ⟨p, hp, rfl⟩ := List.mem_map.mp hi
    obtain ⟨q, hq, rfl⟩ := List.mem_map.mp hj
    exact hdistinct t (List.mem_filter.mp ht).1 u (List.mem_filter.mp hu).1 _
      (haccepted p hp).2 _ (haccepted q hq).2 heq
  · obtain ⟨o, ho, hrule⟩ := pinWalk_ok h.pinned q hq
    obtain ⟨a, ha⟩ := (haccepted q hq).1
    obtain ⟨o', ho', hprecise⟩ :=
      ((reachable_accepted hw.reachable).booked s h.account).ordered _ a ha
    obtain rfl := Option.some_inj.mp (ho.symm.trans ho')
    have hfilled := engine_inPieces hw h.account _ o ho
    rw [Order.Precise, hrule] at hprecise
    rw [hrule] at hfilled
    exact ⟨o, ho, Int.emod_eq_zero_of_dvd (dvd_sub (Int.dvd_of_emod_eq_zero hprecise)
      (Int.dvd_of_emod_eq_zero hfilled))⟩

/-- The queue has price-time priority. In a run whose fills are the executors',
every event of a replay is lawful: only a historical trade fills simulated orders,
only those that stand before the historical participant of their side, and one of
them only when every candidate of a better rank is filled whole. And whatever the
run, the queue position that is pinned for an accepted order never changes. -/
theorem price_time_priority (spec : AccountSpec) :
    (∀ w, ReachableIf spec EngineFills w → ∀ aid e throughAt throughSequence w',
      step spec w (.queueAdvance aid e throughAt throughSequence) = .ok w' →
      DistinctFills spec aid e.events (e.positions.map QueuePosition.orderId) →
      w' = w ∨ ∃ s volumes start x1 entrants x2 run results,
        QueueReplayed spec aid e (throughAt.getD e.capture.endAt)
          (throughSequence.getD e.capture.endSequence) w w' s volumes start x1 entrants x2
          run results ∧
        ReplayLawful spec aid e.toQueueMarket entrants
          ⟨⟨s, []⟩, x2, start.book, start.seen, [], []⟩
          (pendingTicks e.toQueueMarket start.last
            (throughSequence.getD e.capture.endSequence))) ∧
    ∀ w, Reachable spec w → ∀ w', Relation.ReflTransGen (StepIf spec fun _ _ _ => True) w w' →
      ∀ id a, w.execution.orders.get? id = some a → ∀ stream marker,
        a.queuePositions.get? stream = some marker →
        ∃ b, w'.execution.orders.get? id = some b ∧
          b.queuePositions.get? stream = some marker := by
  constructor
  · intro w hw aid e throughAt throughSequence w' hstep hdistinct
    rcases queueAdvance_market hstep with rfl | ⟨s, volumes, start, x1, entrants, x2, run,
      results, hrun⟩
    · exact Or.inl rfl
    · exact Or.inr ⟨s, volumes, start, x1, entrants, x2, run, results, hrun,
        hrun.lawful hw hdistinct⟩
  · intro w hw w' hlater id a ha stream marker hmarker
    obtain ⟨b, hb, hgrows⟩ := accepted_kept hw hlater ha
    exact ⟨b, hb, hgrows.pinned stream marker hmarker⟩

def openProof (at_ : Instant) : AcceptanceEvidence := sampleEvidence .noException at_

def twoBids : List Command := [
  .opening "open" true,
  .acceptBatch "bids" [
      sampleOrder "x" .buy 100 11,
      sampleOrder "y" .buy 100 (21 / 2)]
    [openProof (sampleAt 0 590)] (sampleAt 0 590)]

def bidCapture : QueueEvidence :=
  { tradedCapture with positions := [⟨"x", 2, "source"⟩, ⟨"y", 2, "source"⟩] }

def bidFilled (w : World) : Bool :=
  match step sampleSpec w (.queueAdvance "auction" bidCapture none none) with
  | .ok w' => w'.events.length ≠ w.events.length &&
      w'.account.any fun s => (s.orders.get? "x").any fun o => o.filledQuantity = 6
  | .error _ => false

theorem price_time_priority_sample : ∃ w w', ReachableIf sampleSpec EngineFills w ∧
    step sampleSpec w (.queueAdvance "auction" bidCapture none none) = .ok w' ∧ w' ≠ w ∧
    ∃ s volumes start x1 entrants x2 run results,
      QueueReplayed sampleSpec "auction" bidCapture (sampleAt 0 610) 4 w w' s volumes start x1
        entrants x2 run results ∧
      ReplayLawful sampleSpec "auction" tradedCapture entrants
        ⟨⟨s, []⟩, x2, start.book, start.seen, [], []⟩
        (pendingTicks tradedCapture start.last 4) := by
  obtain ⟨w, hw, htest⟩ := ReachableIf.of_check sampleSpec EngineFills twoBids bidFilled
    (by decide +kernel)
  unfold bidFilled at htest
  split at htest
  · next w' hstep =>
      obtain ⟨hevents, -⟩ := Bool.and_eq_true_iff.mp htest
      have hnew : w' ≠ w := by
        rintro rfl
        exact of_decide_eq_true hevents rfl
      have hdistinct : DistinctFills sampleSpec "auction" bidCapture.events
          (bidCapture.positions.map QueuePosition.orderId) := by decide +kernel
      exact ⟨w, w', hw, hstep, hnew, ((price_time_priority sampleSpec).1 w hw _ _ _ _ _ hstep
        hdistinct).resolve_left hnew⟩
  · cases htest

end Ahunter.Sim
